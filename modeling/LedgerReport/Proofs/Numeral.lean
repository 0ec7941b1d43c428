import LedgerReport.Numeral
set_option autoImplicit false

namespace LedgerReport

namespace Text

theorem isBlank_of_isDecimalDigit {c : Char} (h : isDecimalDigit c = true) :
    isBlank c = false := by
  have hdisjoint : ∀ z ∈ zeroPoints, ∀ r ∈ blankRanges, z + 10 ≤ r.1 ∨ r.2 < z := by decide
  obtain ⟨d, hd⟩ := Option.isSome_iff_exists.1 h
  obtain ⟨z, hz, -⟩ := Option.map_eq_some_iff.1 hd
  have hin : z ≤ c.toNat ∧ c.toNat < z + 10 := by simpa using List.find?_some hz
  rw [Bool.eq_false_iff]
  intro hb
  obtain ⟨r, hr, hfrom, hto⟩ := (inRanges_iff blankRanges c.toNat).1 hb
  have := hdisjoint z (List.mem_of_find?_eq_some hz) r hr
  omega

theorem ne_of_isDecimalDigit {c d : Char} (h : isDecimalDigit c = true)
    (hd : isDecimalDigit d = false) : c ≠ d := by
  rintro rfl
  rw [h] at hd
  cases hd

def digitsValue (cs : List Char) : Nat :=
  cs.foldl (fun n c => 10 * n + (digitValue? c).getD 0) 0

section
variable {cs : List Char}

theorem strip_of_forall {p : Char → Bool} (h : ∀ c ∈ cs, p c = false) : strip p cs = cs := by
  have hdrop : ∀ xs : List Char, (∀ c ∈ xs, p c = false) → xs.dropWhile p = xs := by
    intro xs hxs
    cases xs with
    | nil => rfl
    | cons x xs => rw [List.dropWhile_cons_of_neg (by simp [hxs x])]
  rw [strip, hdrop cs h, hdrop cs.reverse fun c hc => h c (List.mem_reverse.1 hc),
    List.reverse_reverse]

theorem trimChars_of_not_blank (h : ∀ c ∈ cs, isBlank c = false) : trimChars cs = cs :=
  strip_of_forall h

theorem isPadding_of_not_blank {c : Char} (h : isBlank c = false) : isPadding c = false := by
  rw [isPadding, h, Bool.false_and]

theorem unpadded_of_not_blank (h : ∀ c ∈ cs, isBlank c = false) : unpadded cs = cs :=
  strip_of_forall fun c hc => isPadding_of_not_blank (h c hc)

end

end Text

open Text Decimal

namespace Numeral

def AreDigits (cs : List Char) : Prop := ∀ c ∈ cs, isDecimalDigit c = true

def Stops (rest : List Char) : Prop := ∀ c r, rest = c :: r → isDecimalDigit c = false ∧ c ≠ '_'

theorem stops_nil : Stops [] := nofun

theorem areDigits_nil : AreDigits [] := nofun

theorem stops_point (r : List Char) : Stops ('.' :: r) := by
  rintro c r' h
  cases h
  exact ⟨by decide, by decide⟩

theorem spanDigits_append {ds rest : List Char} (hd : AreDigits ds) (hr : Stops rest)
    (afterDigit : Bool) : spanDigits afterDigit (ds ++ rest) =
      (ds.map fun c => (digitValue? c).getD 0, rest) := by
  induction ds generalizing afterDigit with
  | nil =>
    cases rest with
    | nil => rfl
    | cons c r =>
      obtain ⟨hc, hu⟩ := hr c r rfl
      have hnone : digitValue? c = none := by simpa [isDecimalDigit] using hc
      simp [spanDigits, hnone, hu]
  | cons c ds ih =>
    obtain ⟨d, hc⟩ := Option.isSome_iff_exists.1 (hd c (by simp))
    rw [List.cons_append, spanDigits, hc, ih (fun x hx => hd x (by simp [hx]))]
    simp [hc]

theorem spanDigits_digits {ds : List Char} (hd : AreDigits ds) (afterDigit : Bool) :
    spanDigits afterDigit ds = (ds.map fun c => (digitValue? c).getD 0, []) := by
  simpa using spanDigits_append hd stops_nil afterDigit

theorem ofDigits_map (ds : List Char) :
    ofDigits (ds.map fun c => (digitValue? c).getD 0) = digitsValue ds := by
  simp [ofDigits, digitsValue, List.foldl_map]

theorem splitSign_of_ne {c : Char} {r : List Char} (hm : c ≠ '-') (hp : c ≠ '+') :
    splitSign (c :: r) = (false, c :: r) := by
  unfold splitSign
  split
  · rename_i h
    exact absurd (List.cons.inj h).1 hm
  · rename_i h
    exact absurd (List.cons.inj h).1 hp
  · rfl

theorem AreDigits.splitSign_eq {ds : List Char} (hd : AreDigits ds) :
    splitSign ds = (false, ds) := by
  cases ds with
  | nil => rfl
  | cons c r =>
    have hc := hd c (by simp)
    exact splitSign_of_ne (ne_of_isDecimalDigit hc (by decide))
      (ne_of_isDecimalDigit hc (by decide))

theorem signedDigits?_digits {ds : List Char} (hd : AreDigits ds) (hn : ds ≠ []) :
    signedDigits? ds = some (false, ds.map fun c => (digitValue? c).getD 0) := by
  obtain ⟨c, r, rfl⟩ := List.exists_cons_of_ne_nil hn
  simp only [signedDigits?, hd.splitSign_eq, spanDigits_digits hd, List.map_cons]

theorem digitsValue?_eq_some_iff {cs : List Char} {n : Nat} :
    digitsValue? cs = some n ↔ AreDigits cs ∧ digitsValue cs = n := by
  have hfold : ∀ k, (cs.foldlM (fun n c => (digitValue? c).map (10 * n + ·)) k = some n ↔
      AreDigits cs ∧ cs.foldl (fun n c => 10 * n + (digitValue? c).getD 0) k = n) := by
    induction cs with
    | nil => simp [AreDigits]
    | cons c cs ih =>
      intro k
      rw [List.foldlM_cons, List.foldl_cons, AreDigits, List.forall_mem_cons]
      cases hc : digitValue? c with
      | none => simp [isDecimalDigit, hc]
      | some d =>
        simp only [Option.map_some, Option.bind_some, bind, ih, isDecimalDigit, hc,
          Option.getD_some]
        simp [AreDigits, isDecimalDigit]
  exact hfold 0

theorem isWritable_iff {n : Int} : isWritable n = true ↔ n.natAbs < tenTo digitLimit :=
  decide_eq_true_iff

theorem readWhole?_digits {ds : List Char} (hd : AreDigits ds) (hn : ds ≠ []) :
    readWhole? (String.ofList ds) =
      if ds.length ≤ digitLimit then some (digitsValue ds : Int) else none := by
  have hunpadded : unpadded ds = ds :=
    unpadded_of_not_blank fun x hx => isBlank_of_isDecimalDigit (hd x hx)
  rw [readWhole?, String.toList_ofList, hunpadded, signedDigits?_digits hd hn, Option.bind_some,
    List.length_map, ← ofDigits_map]
  rfl

theorem readDecimal?_digits {ds : List Char} (hd : AreDigits ds) (hn : ds ≠ []) :
    readDecimal? ds = some (digitsValue ds, 0) := by
  simp only [readDecimal?, spanDigits_digits hd, List.isEmpty_map]
  simp [hn, readExponent?, ofDigits_map]

/-- Whether characters are digits with a fraction behind them, or one of the two alone. -/
def IsDecimal (cs : List Char) : Prop :=
  ∃ ds, AreDigits ds ∧
    (cs = ds ∧ ds ≠ [] ∨ ∃ es, AreDigits es ∧ es ≠ [] ∧ cs = ds ++ '.' :: es)

theorem IsDecimal.isBlank_eq_false {cs : List Char} (h : IsDecimal cs) :
    ∀ c ∈ cs, isBlank c = false := by
  obtain ⟨ds, hd, ⟨rfl, -⟩ | ⟨es, he, -, rfl⟩⟩ := h
  · exact fun c hc => isBlank_of_isDecimalDigit (hd c hc)
  · intro c hc
    rcases List.mem_append.1 hc with hc | hc
    · exact isBlank_of_isDecimalDigit (hd c hc)
    rcases List.mem_cons.1 hc with rfl | hc
    · decide
    · exact isBlank_of_isDecimalDigit (he c hc)

theorem IsDecimal.splitSign_eq {cs : List Char} (h : IsDecimal cs) :
    splitSign cs = (false, cs) := by
  obtain ⟨ds, hd, hcs⟩ := h
  obtain ⟨rfl, -⟩ | ⟨es, -, -, rfl⟩ := hcs
  · exact hd.splitSign_eq
  · cases ds with
    | nil => rfl
    | cons c ds =>
      have hc := hd c (by simp)
      exact splitSign_of_ne (ne_of_isDecimalDigit hc (by decide))
        (ne_of_isDecimalDigit hc (by decide))

theorem IsDecimal.readDecimal?_isSome {cs : List Char} (h : IsDecimal cs) :
    ∃ p, readDecimal? cs = some p := by
  obtain ⟨ds, hd, ⟨rfl, hn⟩ | ⟨es, he, hn, rfl⟩⟩ := h
  · refine ⟨(digitsValue cs, 0), ?_⟩
    simp only [readDecimal?, spanDigits_digits hd, List.isEmpty_map]
    simp [hn, readExponent?, ofDigits_map]
  · refine ⟨(digitsValue (ds ++ es), -es.length), ?_⟩
    simp only [readDecimal?, spanDigits_append hd (stops_point es), spanDigits_digits he,
      List.isEmpty_map, ← List.map_append, ofDigits_map]
    simp [hn, readExponent?]

theorem IsDecimal.readReal?_isSome {cs : List Char} (h : IsDecimal cs) :
    ∃ x, readReal? (String.ofList cs) = some x := by
  obtain ⟨p, hp⟩ := h.readDecimal?_isSome
  simp only [readReal?, String.toList_ofList, unpadded_of_not_blank h.isBlank_eq_false,
    h.splitSign_eq, hp]
  cases readWord? cs with
  | none => exact ⟨_, rfl⟩
  | some x => exact ⟨_, rfl⟩

end Numeral
end LedgerReport
