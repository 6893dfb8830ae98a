import Lettre.Smtp.Response

/-!
# Well-formed replies, and what `parse_response` accepts

A reply as a server writes it (RFC 5321 §4.2.1): continuation lines `C-text CRLF`, then a final
line `C CRLF` or `C SP text CRLF`, every line with the same code `C`, no text holding CRLF, every
text UTF-8. `Reply` is such a reply; its well-formedness is a field, so a `Reply` cannot be built
otherwise. `Reply.bytes` writes it and `Reply.response` is the `Response` it stands for.

* `parseResponse_eq_ok_iff`: **`parse_response` accepts exactly the well-formed replies.** It
  succeeds with `(rest, R)` if and only if its input is a well-formed reply followed by `rest`,
  and then `R` is the response of that reply.
* `parseResponse_prefix_incomplete`: **`parse_response` never commits early.** On every proper
  prefix of a well-formed reply it answers `incomplete`, never an error and never a shorter reply.

Both go line by line: `continuationLine` reads a continuation line whole and rejects a final
line, `lastLine` reads a final line whole, and each of them answers `incomplete` on the proper
prefixes of its line (`continuationLine_prefix_contLine`, `prefix_finalLine_cases`). The loop of
`many0` carries this over the whole reply (`many0Aux_items`, `many0Aux_pair_prefix`).
-/

namespace Lettre.Smtp

open Nom Nom.IResult Nom.Parser

/-- A well-formed reply: one code for every line, the texts of the continuation lines, and the
final line's text if it has one. -/
structure Reply where
  code : Code
  lines : List Str
  last : Option Str
  noCRLF : ∀ t ∈ lines ++ last.toList, NoCRLF t.bytes

/-- The bytes of a continuation line, `C-text CRLF`. -/
def contLine (c : Code) (t : List UInt8) : List UInt8 := c.display ++ 45 :: t ++ [13, 10]

/-- The bytes of a final line, `C CRLF` or `C SP text CRLF`. -/
def finalLine (c : Code) : Option (List UInt8) → List UInt8
  | none => c.display ++ [13, 10]
  | some t => c.display ++ 32 :: t ++ [13, 10]

theorem finalLine_ne_nil (c : Code) (ot : Option (List UInt8)) : finalLine c ot ≠ [] := by
  cases ot <;> simp [finalLine, Code.display]

/-- The bytes of a reply. -/
def Reply.bytes (r : Reply) : List UInt8 :=
  (r.lines.map fun t => contLine r.code t.bytes).flatten ++ finalLine r.code (r.last.map Str.bytes)

/-- The response a reply stands for: its code, and the texts of its lines. -/
def Reply.response (r : Reply) : Response := ⟨r.code, r.lines ++ r.last.toList⟩

/-! ### One line -/

theorem contLine_ne_nil (c : Code) (t : List UInt8) : contLine c t ≠ [] := by
  simp [contLine, Code.display]

theorem continuationLine_contLine (c : Code) {t : List UInt8} (ht : NoCRLF t) (rest : List UInt8) :
    continuationLine (contLine c t ++ rest) = ok rest (c, t) := by
  simp [continuationLine, contLine, parseCode_display, takeUntilAndConsume_crlf rest ht]

theorem continuationLine_finalLine (c : Code) (ot : Option (List UInt8)) (rest : List UInt8) :
    continuationLine (finalLine c ot ++ rest) = error := by
  cases ot <;> simp [continuationLine, finalLine, parseCode_display]

theorem lastLine_finalLine (c : Code) {ot : Option (List UInt8)} (ht : ∀ t ∈ ot, NoCRLF t)
    (rest : List UInt8) : lastLine (finalLine c ot ++ rest) = ok rest (c, ot) := by
  have hcrlf : crlf (13 :: 10 :: rest) = ok rest [13, 10] := tag_append [13, 10] rest
  cases ot with
  | none =>
    have hopt : ((char 32).preceded (takeUntil [13, 10])).opt (13 :: 10 :: rest) =
        ok (13 :: 10 :: rest) none := opt_error (by simp)
    simp [lastLine, finalLine, parseCode_display, hopt, hcrlf]
  | some t =>
    have hopt : ((char 32).preceded (takeUntil [13, 10])).opt (32 :: (t ++ 13 :: 10 :: rest)) =
        ok (13 :: 10 :: rest) (some t) := opt_ok (by simp [takeUntil_crlf rest (ht t rfl)])
    simp [lastLine, finalLine, parseCode_display, hopt, hcrlf]

theorem continuationLine_eq_ok {i r : List UInt8} {c : Code} {t : List UInt8}
    (h : continuationLine i = ok r (c, t)) : i = contLine c t ++ r ∧ NoCRLF t := by
  simp only [continuationLine, pair_apply, preceded_apply, bind_eq_ok] at h
  obtain ⟨r1, c', hc, _, t', ⟨r2, _, hdash, ht⟩, he⟩ := h
  cases he
  obtain ⟨rfl, -⟩ := char_eq_ok hdash
  obtain ⟨rfl, hfree⟩ := takeUntilAndConsume_eq_ok ht
  refine ⟨?_, hfree⟩
  rw [parseCode_eq_ok hc]
  simp [contLine]

theorem lastLine_eq_ok {i r : List UInt8} {c : Code} {ot : Option (List UInt8)}
    (h : lastLine i = ok r (c, ot)) : i = finalLine c ot ++ r ∧ ∀ t ∈ ot, NoCRLF t := by
  simp only [lastLine, pair_apply, terminated_apply, bind_eq_ok] at h
  obtain ⟨r1, c', hc, _, ot', ⟨r2, o, hopt, r3, _, hcrlf, he1⟩, he⟩ := h
  cases he; cases he1
  obtain ⟨rfl, -⟩ := tag_eq_ok hcrlf
  rw [parseCode_eq_ok hc]
  unfold opt at hopt
  split at hopt
  · next r4 t ht =>
    cases hopt
    simp only [preceded_apply, bind_eq_ok] at ht
    obtain ⟨r5, _, hsp, htu⟩ := ht
    obtain ⟨rfl, -⟩ := char_eq_ok hsp
    obtain ⟨rfl, -, hfree⟩ := takeUntil_eq_ok htu
    refine ⟨?_, fun t' ht' => by cases ht'; exact hfree⟩
    simp [finalLine]
  · cases hopt
  · cases hopt
    exact ⟨by simp [finalLine], fun _ h => by cases h⟩

/-! ### Proper prefixes of one line -/

/-- After the code alone, `continuationLine` waits for the `-`. -/
theorem continuationLine_display (c : Code) : continuationLine c.display = incomplete := by
  have h := parseCode_display c []
  rw [List.append_nil] at h
  simp [continuationLine, h]

/-- A prefix of a line that starts with the code and a separator byte: `continuationLine` is
still waiting on it, or it is the code, the separator and a prefix of the rest. -/
theorem prefix_codeLine_cases {c : Code} {b : UInt8} {s q : List UInt8}
    (hq : q <+: c.display ++ b :: s) :
    continuationLine q = incomplete ∨ ∃ q', q = c.display ++ b :: q' ∧ q' <+: s := by
  rcases prefix_append_cases hq with ⟨hq, hqd⟩ | ⟨q', rfl, hq'⟩
  · exact .inl (by simp [continuationLine, parseCode_prefix_display hq hqd])
  rcases List.prefix_cons_iff.mp hq' with rfl | ⟨q'', rfl, hq''⟩
  · exact .inl (by simpa using continuationLine_display c)
  · exact .inr ⟨q'', rfl, hq''⟩

/-- On a proper prefix of a continuation line, `continuationLine` is `incomplete`. -/
theorem continuationLine_prefix_contLine {c : Code} {t q : List UInt8} (ht : NoCRLF t)
    (hq : q <+: contLine c t) (hne : q ≠ contLine c t) : continuationLine q = incomplete := by
  rw [contLine, List.append_assoc, List.cons_append] at hq hne
  rcases prefix_codeLine_cases hq with h | ⟨q', rfl, hq'⟩
  · exact h
  have hne' : q' ≠ t ++ [13, 10] := by rintro rfl; exact hne rfl
  simp [continuationLine, parseCode_display,
    takeUntilAndConsume_absent (noCRLF_of_prefix_crlf ht hq' hne')]

/-- On a proper prefix of a final line, `continuationLine` is `incomplete`, or it rejects the
line and `lastLine` is `incomplete`. -/
theorem prefix_finalLine_cases {c : Code} {ot : Option (List UInt8)} {q : List UInt8}
    (ht : ∀ t ∈ ot, NoCRLF t) (hq : q <+: finalLine c ot) (hne : q ≠ finalLine c ot) :
    continuationLine q = incomplete ∨ (continuationLine q = error ∧ lastLine q = incomplete) := by
  have hhead : ∀ (b : UInt8) (s : List UInt8), b ≠ 45 →
      continuationLine (c.display ++ b :: s) = error := by
    intro b s hb
    simp [continuationLine, parseCode_display, hb]
  cases ot with
  | none =>
    simp only [finalLine] at hq hne
    rcases prefix_codeLine_cases hq with h | ⟨q', rfl, hq'⟩
    · exact .inl h
    have : q' = [] := by
      rcases List.prefix_cons_iff.mp hq' with h | ⟨_, rfl, h⟩
      · exact h
      · exact absurd (by rw [List.prefix_nil.mp h]) hne
    subst this
    refine .inr ⟨hhead 13 [] (by decide), ?_⟩
    have hopt : ((char 32).preceded (takeUntil [13, 10])).opt [13] = ok [13] none :=
      opt_error (by simp)
    simp [lastLine, parseCode_display, hopt, crlf,
      tag_prefix_incomplete (show [(13 : UInt8)] <+: [13, 10] from ⟨[10], rfl⟩) (by decide)]
  | some t =>
    simp only [finalLine, List.append_assoc, List.cons_append] at hq hne
    rcases prefix_codeLine_cases hq with h | ⟨q', rfl, hq'⟩
    · exact .inl h
    have hne' : q' ≠ t ++ [13, 10] := by rintro rfl; exact hne rfl
    have hfree := noCRLF_of_prefix_crlf (ht t rfl) hq' hne'
    refine .inr ⟨hhead 32 q' (by decide), ?_⟩
    have hopt : ((char 32).preceded (takeUntil [13, 10])).opt (32 :: q') = incomplete :=
      opt_incomplete (by simp [takeUntil_absent hfree])
    simp [lastLine, parseCode_display, hopt]

/-! ### Whole replies -/

/-- The items `many0` returns on the continuation lines of a reply. -/
def Reply.items (r : Reply) : List (Code × List UInt8) := r.lines.map fun t => (r.code, t.bytes)

theorem Reply.bytes_eq (r : Reply) :
    r.bytes = (r.items.map fun x => contLine x.1 x.2).flatten ++
      finalLine r.code (r.last.map Str.bytes) := by
  simp [Reply.bytes, Reply.items, Function.comp_def]

theorem mapM_fromUtf8 : ∀ (ls : List Str), (ls.map Str.bytes).mapM fromUtf8 = some ls
  | [] => rfl
  | l :: ls => by rw [List.map_cons, List.mapM_cons, fromUtf8_bytes l, mapM_fromUtf8 ls]; rfl

theorem mapM_fromUtf8_eq_some :
    ∀ {xs : List (List UInt8)} {ls : List Str}, xs.mapM fromUtf8 = some ls → xs = ls.map Str.bytes
  | [], ls, h => by cases h; rfl
  | x :: xs, ls, h => by
    simp only [List.mapM_cons, Option.bind_eq_bind, Option.bind_eq_some, Option.pure_def,
      Option.some.injEq] at h
    obtain ⟨s, hs, ss, hss, rfl⟩ := h
    simp [fromUtf8_eq_some hs, mapM_fromUtf8_eq_some hss]

theorem buildResponse_reply (r : Reply) :
    buildResponse (r.items, r.code, r.last.map Str.bytes) = some r.response := by
  have hall : r.items.all (·.1 = r.code) = true := by simp [Reply.items]
  have htexts : r.items.map (·.2) ++ (r.last.map Str.bytes).toList =
      (r.lines ++ r.last.toList).map Str.bytes := by
    cases r.last <;> simp [Reply.items, Function.comp_def]
  simp only [buildResponse, hall, ↓reduceIte, htexts, mapM_fromUtf8]
  rfl

theorem buildResponse_eq_some {items : List (Code × List UInt8)} {c : Code}
    {ot : Option (List UInt8)} {R : Response} (h : buildResponse (items, c, ot) = some R) :
    (∀ x ∈ items, x.1 = c) ∧ ∃ (ls : List Str) (lt : Option Str),
      items.map (·.2) = ls.map Str.bytes ∧ ot = Option.map Str.bytes lt ∧
      R = ⟨c, ls ++ lt.toList⟩ := by
  simp only [buildResponse] at h
  split_ifs at h with hall
  refine ⟨by simpa using hall, ?_⟩
  obtain ⟨msg, hmsg, rfl⟩ := Option.map_eq_some'.mp h
  obtain ⟨ls, lt', hsplit, hls, hlt⟩ := List.map_eq_append_iff.mp (mapM_fromUtf8_eq_some hmsg).symm
  subst hsplit
  cases ot with
  | none =>
    simp only [Option.toList_none, List.map_eq_nil_iff] at hlt
    exact ⟨ls, none, hls.symm, rfl, by simp [hlt]⟩
  | some t =>
    rcases lt' with _ | ⟨s, _ | ⟨_, _⟩⟩ <;> simp only [Option.toList_some, List.map_nil,
      List.map_cons, List.cons.injEq, List.nil_eq, reduceCtorEq, and_false, and_true] at hlt
    exact ⟨ls, some s, hls.symm, by rw [← hlt]; rfl, rfl⟩

/-- The text of a reply's final line holds no CRLF. -/
theorem Reply.noCRLF_last (r : Reply) : ∀ t ∈ r.last.map Str.bytes, NoCRLF t := by
  intro t ht
  obtain ⟨s, hs, rfl⟩ := Option.mem_map.mp ht
  exact r.noCRLF s (List.mem_append_right _ (Option.mem_toList.mpr hs))

/-- `continuationLine` reads each continuation line of a reply whole, and waits on its proper
prefixes. -/
theorem Reply.items_lines (r : Reply) : ∀ x ∈ r.items, contLine x.1 x.2 ≠ [] ∧
    (∀ w, continuationLine (contLine x.1 x.2 ++ w) = ok w x) ∧
    ∀ w, w <+: contLine x.1 x.2 → w ≠ contLine x.1 x.2 → continuationLine w = incomplete := by
  intro x hx
  obtain ⟨t, ht, rfl⟩ := List.mem_map.mp hx
  have hfree := r.noCRLF t (List.mem_append_left _ ht)
  exact ⟨contLine_ne_nil _ _, continuationLine_contLine _ hfree,
    fun _ => continuationLine_prefix_contLine hfree⟩

/-- `parse_response` reads a well-formed reply back, whatever follows it. -/
theorem parseResponse_reply (r : Reply) (rest : List UInt8) :
    parseResponse (r.bytes ++ rest) = ok rest r.response := by
  have hmany : many0 continuationLine (r.bytes ++ rest) =
      ok (finalLine r.code (r.last.map Str.bytes) ++ rest) r.items := by
    have := many0Aux_items continuationLine (fun x => contLine x.1 x.2)
      (finalLine r.code (r.last.map Str.bytes) ++ rest) (continuationLine_finalLine _ _ _)
      r.items [] ((r.bytes ++ rest).length + 1)
      (fun x hx => ⟨(r.items_lines x hx).1, (r.items_lines x hx).2.1⟩)
      (by rw [r.bytes_eq, List.append_assoc]; omega)
    rw [r.bytes_eq, List.append_assoc]
    simpa [many0, r.bytes_eq] using this
  simp [parseResponse, hmany, lastLine_finalLine r.code r.noCRLF_last rest, buildResponse_reply]

/-- What `parse_response` accepts is a well-formed reply, and it returns that reply. -/
theorem parseResponse_eq_ok {w rest : List UInt8} {R : Response} (h : parseResponse w = ok rest R) :
    ∃ r : Reply, w = r.bytes ++ rest ∧ R = r.response := by
  simp only [parseResponse, mapRes_apply, pair_apply, bind_eq_ok] at h
  obtain ⟨w2, ⟨items, c, ot⟩, ⟨w1, items', hmany, _, ⟨c', ot'⟩, hlast, he⟩, hb⟩ := h
  cases he
  split at hb
  · next R' hR =>
    cases hb
    obtain ⟨xs, hxs, rfl, hfree, -⟩ := @many0Aux_inv _ _ (fun x => contLine x.1 x.2)
      (fun x => NoCRLF x.2) (fun i r a h => by
        obtain ⟨c, t⟩ := a; exact continuationLine_eq_ok h) _ _ _ _ _ hmany
    simp only [List.nil_append] at hxs
    subst hxs
    obtain ⟨rfl, hot⟩ := lastLine_eq_ok hlast
    obtain ⟨hcode, ls, lt, hls, rfl, rfl⟩ := buildResponse_eq_some hR
    have hnc : ∀ t ∈ ls ++ lt.toList, NoCRLF t.bytes := by
      intro t ht
      rcases List.mem_append.mp ht with ht | ht
      · obtain ⟨x, hx, hxt⟩ : ∃ x ∈ items, x.2 = t.bytes := by
          have : t.bytes ∈ items.map (·.2) := hls ▸ List.mem_map_of_mem _ ht
          simpa using this
        exact hxt ▸ hfree x hx
      · exact hot t.bytes (by cases lt <;> simp_all)
    refine ⟨⟨c, ls, lt, hnc⟩, ?_, rfl⟩
    have hlines : (items.map fun x => contLine x.1 x.2) = ls.map fun t => contLine c t.bytes := by
      rw [show (ls.map fun t => contLine c t.bytes) = (ls.map Str.bytes).map (contLine c) by
        simp [Function.comp_def], ← hls, List.map_map]
      exact List.map_congr_left fun x hx => by simp [hcode x hx]
    simp [Reply.bytes, hlines]
  · cases hb

/-- **`parse_response` accepts exactly the well-formed replies.** It succeeds on `w` with
`(rest, R)` if and only if `w` is a well-formed reply followed by `rest`, and `R` is that
reply's response. -/
theorem parseResponse_eq_ok_iff (w rest : List UInt8) (R : Response) :
    parseResponse w = ok rest R ↔ ∃ r : Reply, w = r.bytes ++ rest ∧ R = r.response :=
  ⟨parseResponse_eq_ok, fun ⟨r, hw, hR⟩ => hw ▸ hR ▸ parseResponse_reply r rest⟩

/-- **`parse_response` never commits early.** On every proper prefix of a well-formed reply it
answers `incomplete`. -/
theorem parseResponse_prefix_incomplete (r : Reply) {q : List UInt8} (hq : q <+: r.bytes)
    (hne : q ≠ r.bytes) : parseResponse q = incomplete := by
  rw [r.bytes_eq] at hq hne
  have hpair := many0Aux_pair_prefix continuationLine lastLine (fun x => contLine x.1 x.2) _
    (fun _ => prefix_finalLine_cases r.noCRLF_last) r.items [] (q.length + 1) q r.items_lines
    (by omega) hq hne
  simp only [parseResponse, mapRes_apply]
  rw [show (many0 continuationLine).pair lastLine q =
    (many0Aux continuationLine (q.length + 1) []).pair lastLine q from rfl, hpair]
  rfl

/-! ### The bytes of a reply are UTF-8 -/

theorem Code.display_ascii (c : Code) : ∀ x ∈ c.display, x.toNat < 0x80 := by
  have h1 : ∀ s : Severity, s.digit.toNat < 0x80 := by intro s; cases s <;> decide
  have h2 : ∀ c : Category, c.digit.toNat < 0x80 := by intro c; cases c <;> decide
  have h3 : ∀ d : Detail, d.digit.toNat < 0x80 := by intro d; cases d <;> decide
  simp [Code.display, h1, h2, h3]

theorem valid_contLine (c : Code) {t : List UInt8} (ht : Utf8.valid t = true) :
    Utf8.valid (contLine c t) = true := by
  rw [contLine, List.append_assoc, List.cons_append]
  refine Utf8.valid_append (Utf8.valid_of_forall_lt c.display_ascii) ?_
  rw [Utf8.valid_cons_ascii (by decide)]
  exact Utf8.valid_append ht rfl

theorem valid_finalLine (c : Code) {ot : Option (List UInt8)} (ht : ∀ t ∈ ot, Utf8.valid t = true) :
    Utf8.valid (finalLine c ot) = true := by
  cases ot with
  | none => exact Utf8.valid_append (Utf8.valid_of_forall_lt c.display_ascii) rfl
  | some t =>
    rw [finalLine, List.append_assoc, List.cons_append]
    refine Utf8.valid_append (Utf8.valid_of_forall_lt c.display_ascii) ?_
    rw [Utf8.valid_cons_ascii (by decide)]
    exact Utf8.valid_append (ht t rfl) rfl

/-- A reply's bytes are UTF-8, as its texts are. -/
theorem Reply.valid_bytes (r : Reply) : Utf8.valid r.bytes = true := by
  have hlines : ∀ ls : List Str,
      Utf8.valid (ls.map fun t => contLine r.code t.bytes).flatten = true := by
    intro ls
    induction ls with
    | nil => rfl
    | cons t ls ih => exact Utf8.valid_append (valid_contLine r.code t.valid) ih
  refine Utf8.valid_append (hlines r.lines) (valid_finalLine r.code ?_)
  intro t ht
  obtain ⟨s, -, rfl⟩ := Option.mem_map.mp ht
  exact s.valid

/-- A reply ends with LF. -/
theorem Reply.bytes_eq_append (r : Reply) : ∃ p, r.bytes = p ++ [10] := by
  obtain ⟨p, hp⟩ : ∃ p, finalLine r.code (r.last.map Str.bytes) = p ++ [10] := by
    cases r.last.map Str.bytes with
    | none => exact ⟨r.code.display ++ [13], by simp [finalLine]⟩
    | some t => exact ⟨r.code.display ++ 32 :: t ++ [13], by simp [finalLine]⟩
  exact ⟨_, by rw [Reply.bytes, hp, ← List.append_assoc]⟩

end Lettre.Smtp
