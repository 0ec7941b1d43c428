import LedgerReport.Proofs.Expression.Lexeme
/-!
Where the tokens of an expression stand.

A lexeme is as long as it can be, so what follows it does not go on with it
(`lexeme?_eq_some_iff`). Hence a text may be cut in front of a token, and anything that starts with
a blank may follow: the tokens in front of the cut stay as they are (`scan_cut`). Tokens stand one
after the other, each where its characters are in the text.
-/

set_option autoImplicit false

namespace LedgerReport
open Text Numeral

def Halts (p : Char → Bool) (rest : List Char) : Prop := ∀ c ∈ rest.head?, p c = false

theorem halts_dropWhile (p : Char → Bool) (cs : List Char) : Halts p (cs.dropWhile p) := by
  intro c hc
  have hn := List.head?_dropWhile_not p cs
  rw [Option.mem_def.1 hc] at hn
  exact hn

theorem takeWhile_halts {p : Char → Bool} {ds rest : List Char} (hd : ∀ c ∈ ds, p c = true)
    (hr : Halts p rest) : (ds ++ rest).takeWhile p = ds ∧ (ds ++ rest).dropWhile p = rest := by
  rw [List.takeWhile_append_of_pos hd, List.dropWhile_append_of_pos hd]
  cases rest with
  | nil => simp
  | cons c r => simp [hr c rfl]

/-- Whether what follows a lexeme does not go on with it. A number without a point goes on with a
point and digits. -/
def TokenKind.Ends (chars rest : List Char) : TokenKind → Prop
  | .number => Halts isDecimalDigit rest ∧
      ('.' ∈ chars ∨ ∀ r, rest = '.' :: r → Halts isDecimalDigit r)
  | .order => Halts isDecimalDigit rest
  | .name => Halts Token.isNameChar rest
  | .operator | .opening | .closing => True

namespace Token

theorem splitDigits_halts {ds rest : List Char} (hd : AreDigits ds)
    (hr : Halts isDecimalDigit rest) : splitDigits (ds ++ rest) = (ds, rest) := by
  obtain ⟨ht, hw⟩ := takeWhile_halts hd hr
  rw [splitDigits, ht, hw]

theorem halts_of_splitDigits {cs ds rest : List Char} (h : splitDigits cs = (ds, rest)) :
    Halts isDecimalDigit rest := by
  have hw : cs.dropWhile isDecimalDigit = rest := congrArg Prod.snd h
  exact hw ▸ halts_dropWhile isDecimalDigit cs

theorem splitFraction_none {rest : List Char} (h : ∀ r, rest = '.' :: r → Halts isDecimalDigit r) :
    splitFraction rest = ([], rest) := by
  unfold splitFraction
  split
  · rename_i r
    have hs : splitDigits r = ([], r) := splitDigits_halts areDigits_nil (h r rfl)
    rw [hs]
  · rfl

theorem splitFraction_some {es rest : List Char} (he : AreDigits es) (hn : es ≠ [])
    (hr : Halts isDecimalDigit rest) :
    splitFraction ('.' :: (es ++ rest)) = ('.' :: es, rest) := by
  obtain ⟨e, es, rfl⟩ := List.exists_cons_of_ne_nil hn
  simp only [splitFraction, splitDigits_halts he hr]

/-- A fraction ends where its digits end, and where there is none no digits follow a point. -/
theorem ends_splitFraction {cs : List Char} (h : Halts isDecimalDigit cs) :
    Halts isDecimalDigit (splitFraction cs).2 ∧ ('.' ∈ (splitFraction cs).1 ∨
      ∀ r, (splitFraction cs).2 = '.' :: r → Halts isDecimalDigit r) := by
  unfold splitFraction
  split
  · rename_i r
    split
    · rename_i rest hs
      refine ⟨h, .inr fun r' hr => ?_⟩
      obtain rfl : r = r' := (List.cons.inj hr).2
      have hw := halts_of_splitDigits hs
      have happ := splitDigits_append r
      rw [hs] at happ
      exact happ ▸ hw
    · rename_i ds rest _ hs
      exact ⟨halts_of_splitDigits hs, .inl List.mem_cons_self⟩
  · rename_i hne
    exact ⟨h, .inr fun r hr => absurd hr (hne r)⟩

theorem ends_of_lexeme? {cs chars rest : List Char} {kind : TokenKind}
    (h : lexeme? cs = some (some kind, chars, rest)) : kind.Ends chars rest := by
  cases cs with
  | nil => cases h
  | cons c r =>
    simp only [lexeme?] at h
    -- the tests for the first character, in their order
    split at h
    · cases h
    split at h
    · cases h
      have hdigits : Halts isDecimalDigit (splitDigits r).2 := halts_of_splitDigits rfl
      obtain ⟨hr, hp⟩ := ends_splitFraction hdigits
      exact ⟨hr, hp.imp_left fun hm => List.mem_cons_of_mem _ (List.mem_append_right _ hm)⟩
    split at h
    · rename_i hpoint
      split at h
      · cases h
      · rename_i hs
        cases h
        exact ⟨halts_of_splitDigits hs, .inl (hpoint ▸ List.mem_cons_self)⟩
    split at h
    · split at h
      · cases h
      · rename_i hs
        cases h
        exact halts_of_splitDigits hs
    split at h
    · cases h
      exact halts_dropWhile isNameChar r
    split at h
    · cases h
      trivial
    split at h
    · cases h
      trivial
    split at h
    · cases h
      trivial
    · cases h

theorem isDecimalDigit_eq_false {c : Char} (hlt : c.toNat < 1632)
    (h : ¬ (48 ≤ c.toNat ∧ c.toNat < 58)) : isDecimalDigit c = false := by
  rw [Bool.eq_false_iff]
  intro hd
  obtain ⟨d, hd⟩ := Option.isSome_iff_exists.1 hd
  obtain ⟨z, hz, -⟩ := Option.map_eq_some_iff.1 hd
  have hin : z ≤ c.toNat ∧ c.toNat < z + 10 := by simpa using List.find?_some hz
  have hzero : ∀ z ∈ zeroPoints, z = 48 ∨ 1632 ≤ z := by decide
  rcases hzero z (List.mem_of_find?_eq_some hz) with rfl | hz'
  · exact h hin
  · omega

theorem isBlank_eq_false {c : Char} (h : 33 ≤ c.toNat ∧ c.toNat < 133) : isBlank c = false := by
  rw [Bool.eq_false_iff]
  intro hb
  obtain ⟨r, hr, hfrom, hto⟩ := (inRanges_iff blankRanges c.toNat).1 hb
  have hrange : ∀ r ∈ blankRanges, r.2 < 33 ∨ 133 ≤ r.1 := by decide
  have := hrange r hr
  omega

theorem toNat_of_isNameStart {c : Char} (h : isNameStart c = true) :
    65 ≤ c.toNat ∧ c.toNat < 123 := by
  rw [isNameStart, Bool.or_eq_true, decide_eq_true_eq] at h
  rcases h with h | rfl
  · rcases Bool.or_eq_true_iff.1 h with h | h
    · have hupper : 'A'.val ≤ c.val ∧ c.val ≤ 'Z'.val := of_decide_eq_true h
      have hrange : 65 ≤ c.toNat ∧ c.toNat ≤ 90 := hupper
      omega
    · have hlower : 'a'.val ≤ c.val ∧ c.val ≤ 'z'.val := by
        simpa only [Bool.and_eq_true, decide_eq_true_eq] using
          (show (decide ('a'.val ≤ c.val) && decide (c.val ≤ 'z'.val)) = true from h)
      have hrange : 97 ≤ c.toNat ∧ c.toNat ≤ 122 := hlower
      omega
  · decide

theorem lexeme?_eq_some_iff {chars rest : List Char} {kind : TokenKind} :
    lexeme? (chars ++ rest) = some (some kind, chars, rest) ↔
      kind.Admits chars ∧ kind.Ends chars rest := by
  constructor
  · intro h
    exact ⟨admits_of_lexeme? h, ends_of_lexeme? h⟩
  · rintro ⟨ha, he⟩
    cases kind with
    | number =>
      obtain ⟨hr, hp⟩ := he
      obtain ⟨ds, hd, hcs⟩ := ha
      cases ds with
      | nil =>
        obtain ⟨-, hn⟩ | ⟨es, hes, hn, rfl⟩ := hcs
        · exact absurd rfl hn
        · obtain ⟨e, es, rfl⟩ := List.exists_cons_of_ne_nil hn
          have hs : splitDigits (e :: (es ++ rest)) = (e :: es, rest) := splitDigits_halts hes hr
          have hpoint : isBlank '.' = false ∧ isDecimalDigit '.' = false := by decide
          simp [lexeme?, hpoint, hs]
      | cons d ds =>
        have hdigit := hd d List.mem_cons_self
        have hds : AreDigits ds := fun c hc => hd c (List.mem_cons_of_mem d hc)
        have hblank := isBlank_of_isDecimalDigit hdigit
        obtain ⟨rfl, -⟩ | ⟨es, hes, hn, rfl⟩ := hcs
        · have hf : splitFraction rest = ([], rest) := by
            refine splitFraction_none (hp.resolve_left fun hm => ?_)
            exact absurd (hd '.' hm) (by decide)
          simp [lexeme?, hblank, hdigit, splitDigits_halts hds hr, hf]
        · have hf := splitFraction_some hes hn hr
          have hs : splitDigits (ds ++ '.' :: (es ++ rest)) = (ds, '.' :: (es ++ rest)) := by
            refine splitDigits_halts hds fun c hc => ?_
            cases hc
            decide
          simp [lexeme?, hblank, hdigit, hs, hf]
    | order =>
      obtain ⟨ds, rfl, hd, hn⟩ := ha
      obtain ⟨d, ds, rfl⟩ := List.exists_cons_of_ne_nil hn
      have hs : splitDigits (d :: (ds ++ rest)) = (d :: ds, rest) := splitDigits_halts hd he
      have hsign : isBlank '@' = false ∧ isDecimalDigit '@' = false := by decide
      simp [lexeme?, hsign, hs]
    | name =>
      obtain ⟨c, r, rfl, hc, hr⟩ := ha
      obtain ⟨hfrom, hto⟩ := toNat_of_isNameStart hc
      have hblank : isBlank c = false := isBlank_eq_false (by omega)
      have hdigit : isDecimalDigit c = false := isDecimalDigit_eq_false (by omega) (by omega)
      have hpoint : c ≠ '.' := by
        rintro rfl
        exact absurd hc (by decide)
      have hsign : c ≠ '@' := by
        rintro rfl
        exact absurd hc (by decide)
      obtain ⟨ht, hw⟩ := takeWhile_halts hr he
      simp [lexeme?, hblank, hdigit, hpoint, hsign, hc, ht, hw]
    | operator =>
      obtain ⟨c, rfl, hc⟩ := ha
      simp only [isOperator, Bool.or_eq_true, decide_eq_true_eq] at hc
      rcases hc with ((rfl | rfl) | rfl) | rfl <;> rfl
    | opening =>
      cases ha
      rfl
    | closing =>
      cases ha
      rfl

end Token

theorem TokenKind.Ends.cut {kind : TokenKind} {chars rest : List Char} (h : kind.Ends chars rest)
    (n : Nat) (tail : List Char) : kind.Ends chars (rest.take n ++ ' ' :: tail) := by
  have hhalts : ∀ (p : Char → Bool) (n : Nat) {rest : List Char}, p ' ' = false → Halts p rest →
      Halts p (rest.take n ++ ' ' :: tail) := by
    intro p n rest hp hr c hc
    cases n with
    | zero =>
      cases hc
      exact hp
    | succ n =>
      cases rest with
      | nil =>
        cases hc
        exact hp
      | cons d rest =>
        cases hc
        exact hr _ rfl
  cases kind with
  | number =>
    refine ⟨hhalts _ n (by decide) h.1, h.2.imp_right fun hpoint r hr => ?_⟩
    cases n with
    | zero => cases hr
    | succ n =>
      cases rest with
      | nil => cases hr
      | cons c rest =>
        cases hr
        exact hhalts _ n (by decide) (hpoint rest rfl)
  | order => exact hhalts _ n (by decide) h
  | name => exact hhalts _ n (by decide) h
  | operator => trivial
  | opening => trivial
  | closing => trivial

namespace Token

theorem scan_blank {c : Char} (hc : isBlank c = true) (position : Nat) (cs : List Char) :
    scan position (c :: cs) = scan (position + 1) cs := by
  have hrun : ∀ {c : Char} (position : Nat) (cs : List Char), isBlank c = true →
      scan position (c :: cs) =
        scan (position + 1 + (cs.takeWhile isBlank).length) (cs.dropWhile isBlank) := by
    intro c position cs hc
    have hl : lexeme? (c :: cs) = some (none, c :: cs.takeWhile isBlank, cs.dropWhile isBlank) := by
      simp [lexeme?, hc]
    rw [scan_of_lexeme? hl, List.length_cons, Nat.add_comm _ 1, ← Nat.add_assoc]
    cases scan (position + 1 + (cs.takeWhile isBlank).length) (cs.dropWhile isBlank) <;> rfl
  rw [hrun position cs hc]
  cases cs with
  | nil => rfl
  | cons d cs =>
    cases hd : isBlank d with
    | true =>
      rw [hrun (position + 1) cs hd, List.takeWhile_cons_of_pos hd, List.dropWhile_cons_of_pos hd,
        List.length_cons]
      congr 1
      omega
    | false => simp [hd]

theorem scan_blanks {bs : List Char} (hb : ∀ c ∈ bs, isBlank c = true) (position : Nat)
    (cs : List Char) : scan position (bs ++ cs) = scan (position + bs.length) cs := by
  induction bs generalizing position with
  | nil => rfl
  | cons b bs ih =>
    rw [List.cons_append, scan_blank (hb b List.mem_cons_self),
      ih fun c hc => hb c (List.mem_cons_of_mem b hc), List.length_cons, Nat.add_assoc,
      Nat.add_comm 1]

theorem scan_of_blanks {bs : List Char} (hb : ∀ c ∈ bs, isBlank c = true) (position : Nat) :
    scan position bs = .ok [] := by
  have h := scan_blanks hb position []
  rw [List.append_nil] at h
  rw [h, scan.eq_def]
  rfl

theorem isBlank_of_lexeme? {cs chars rest : List Char} (h : lexeme? cs = some (none, chars, rest)) :
    ∀ c ∈ chars, isBlank c = true := by
  cases cs with
  | nil => cases h
  | cons c r =>
    simp only [lexeme?] at h
    split at h
    · rename_i hc
      cases h
      intro d hd
      rcases List.mem_cons.1 hd with rfl | hd
      · exact hc
      · exact List.all_eq_true.1 List.all_takeWhile d hd
    repeat' split at h
    all_goals cases h

theorem map_nil_append (x : Except (Nat × Char) (List Token)) : x.map ([] ++ ·) = x := by
  cases x <;> rfl

/-- Where tokens start, which is where the text ends if there are none. -/
def start (finish : Nat) : List Token → Nat
  | [] => finish
  | t :: _ => t.position

theorem scan_cut {position : Nat} {cs : List Char} {pre post : List Token}
    (h : scan position cs = .ok (pre ++ post)) (tail : List Char) :
    ∃ n ≤ cs.length, start (position + cs.length) post = position + n ∧
      scan position (cs.take n ++ ' ' :: tail) =
        (scan (position + n) (' ' :: tail)).map (pre ++ ·) := by
  induction position, cs using scan.induct generalizing pre with
  | case1 position hl =>
    rw [scan.eq_def] at h
    have hnil : pre ++ post = [] := (Except.ok.inj h).symm
    obtain ⟨rfl, rfl⟩ := List.append_eq_nil_iff.1 hnil
    exact ⟨0, Nat.le_refl _, rfl, (map_nil_append _).symm⟩
  | case2 position c r hl =>
    rw [scan_stop hl] at h
    cases h
  | case3 position cs kind chars rest hl ih =>
    obtain rfl := lexeme?_append hl
    obtain ⟨later, hs, h⟩ := scan_eq_ok hl h
    cases kind with
    | none =>
      obtain ⟨n, hn, hstart, hscan⟩ := ih (hs.trans (congrArg Except.ok h.symm))
      refine ⟨chars.length + n, by simp; omega, ?_, ?_⟩
      · rw [List.length_append, ← Nat.add_assoc, ← Nat.add_assoc, hstart]
      · rw [List.take_length_add_append, List.append_assoc,
          scan_blanks (isBlank_of_lexeme? hl), hscan, Nat.add_assoc]
    | some kind =>
      cases pre with
      | nil =>
        obtain rfl : post = ⟨kind, chars, position⟩ :: later := h
        exact ⟨0, Nat.zero_le _, rfl, (map_nil_append _).symm⟩
      | cons t pre =>
        obtain ⟨rfl, rfl⟩ := List.cons.inj h
        obtain ⟨n, hn, hstart, hscan⟩ := ih hs
        refine ⟨chars.length + n, by simp; omega, ?_, ?_⟩
        · rw [List.length_append, ← Nat.add_assoc, ← Nat.add_assoc, hstart]
        · obtain ⟨ha, he⟩ := lexeme?_eq_some_iff.1 hl
          rw [List.take_length_add_append, List.append_assoc,
            scan_of_lexeme? (lexeme?_eq_some_iff.2 ⟨ha, he.cut n tail⟩), hscan, Nat.add_assoc]
          cases scan (position + (chars.length + n)) (' ' :: tail) <;> rfl

theorem scan_append {position : Nat} {cs : List Char} {tokens : List Token}
    (h : scan position cs = .ok tokens) (tail : List Char) :
    scan position (cs ++ ' ' :: tail) =
      (scan (position + cs.length) (' ' :: tail)).map (tokens ++ ·) := by
  have hwhole : scan position cs = .ok (tokens ++ []) := by rwa [List.append_nil]
  obtain ⟨n, -, hstart, hscan⟩ := scan_cut hwhole tail
  obtain rfl : cs.length = n := Nat.add_left_cancel hstart
  rwa [List.take_length] at hscan

/-- Whether tokens stand one after the other from a position on, each where its characters are. -/
structure Placed (position : Nat) (cs : List Char) (tokens : List Token) : Prop where
  apart : tokens.Pairwise fun t u => t.position + t.chars.length ≤ u.position
  stands : ∀ t ∈ tokens, position ≤ t.position ∧ t.chars <+: cs.drop (t.position - position)
  nonempty : ∀ t ∈ tokens, t.chars ≠ []

theorem placed_of_scan {position : Nat} {cs : List Char} {tokens : List Token}
    (h : scan position cs = .ok tokens) : Placed position cs tokens := by
  refine scan_induction (motive := Placed)
    (fun _ => ⟨.nil, List.forall_mem_nil _, List.forall_mem_nil _⟩) ?_ h
  rintro position kind chars rest later hl ⟨hapart, hstands, hnonempty⟩
  have hlater : ∀ t ∈ later, position ≤ t.position ∧
      t.chars <+: (chars ++ rest).drop (t.position - position) := by
    intro t ht
    obtain ⟨hle, hprefix⟩ := hstands t ht
    have hshift : t.position - position =
        chars.length + (t.position - (position + chars.length)) := by omega
    exact ⟨by omega, by rwa [hshift, List.drop_length_add_append]⟩
  cases kind with
  | none => exact ⟨hapart, hlater, hnonempty⟩
  | some kind =>
    refine ⟨.cons (fun t ht => (hstands t ht).1) hapart, fun t ht => ?_, fun t ht => ?_⟩
    · rcases List.mem_cons.1 ht with rfl | ht
      · exact ⟨Nat.le_refl _, by simp⟩
      · exact hlater t ht
    · rcases List.mem_cons.1 ht with rfl | ht
      · exact ne_nil_of_lexeme? hl
      · exact hnonempty t ht

theorem read_eq_ok_iff {expression : String} {tokens : List Token} :
    read expression = .ok tokens ↔ scan 0 expression.toList = .ok tokens := by
  unfold read
  cases scan 0 expression.toList with
  | ok ts => simp
  | error stop => simp

theorem placed_of_read {expression : String} {tokens : List Token}
    (h : read expression = .ok tokens) : Placed 0 expression.toList tokens :=
  placed_of_scan (read_eq_ok_iff.1 h)

theorem Placed.ascending {position : Nat} {cs : List Char} {tokens : List Token}
    (h : Placed position cs tokens) : tokens.Pairwise fun t u => t.position < u.position := by
  refine h.apart.imp_of_mem fun {t u} ht _ hle => ?_
  have := List.length_pos_iff.2 (h.nonempty t ht)
  omega

end Token
end LedgerReport
