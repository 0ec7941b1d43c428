import LedgerReport.Movement.Column
import LedgerReport.Proofs.Document.Json
import LedgerReport.Proofs.Movement.Code
import LedgerReport.Proofs.Movement.Frame
/-!
The values of columns.

The cells of a table keep codes as texts and whole numbers as such, and give amounts values that are
read as amounts (`Value.IsAmount`). So does a column of what records hold, before it is converted to
numbers. Converted, it has for each of its values the floating-point value that it is read as, or
the whole number which that equals (`Narrowed`).
-/

set_option autoImplicit false

namespace LedgerReport
open Decimal Numeral Text

theorem readReal?_floatText (x : Float) : ∃ y, readReal? (floatText x) = some y := by
  rw [floatText]
  cases Binary.ofFloat x with
  | nan => exact ⟨_, rfl⟩
  | infinite negative => cases negative <;> exact ⟨_, rfl⟩
  | finite negative m q =>
    obtain ⟨n, e, hread, -⟩ := readDecimal?_chars (written m q)
    rw [chars_finite]
    exact readReal?_numeral (chars_head _) (numerals_chars _) hread negative

theorem readReal?_toString (n : Int) : ∃ y, readReal? (toString n) = some y := by
  have hread : ∀ (k : Nat) (negative : Bool), (toString n).toList =
      (if negative then ['-'] else []) ++ digitChars k → ∃ y, readReal? (toString n) = some y := by
    intro k negative hn
    obtain ⟨c, r, hcr⟩ := List.exists_cons_of_ne_nil (digitChars_ne_nil k)
    have hhead : ∃ c r, digitChars k = c :: r ∧ c.isDigit = true :=
      ⟨c, r, hcr, isDigit_of_mem_digitChars c (hcr ▸ List.mem_cons_self)⟩
    have hdecimal := readDecimal?_digits (areDigits_of_isDigit isDigit_of_mem_digitChars)
      (digitChars_ne_nil k)
    rw [← String.ofList_toList (s := toString n), hn]
    exact readReal?_numeral hhead (numerals_digitChars k) hdecimal negative
  cases n with
  | ofNat k => exact hread k false (ofWhole_ofNat k)
  | negSucc k => exact hread (k + 1) true (ofWhole_negSucc k)

namespace Value

def IsAmount (v : Value) : Prop := ∃ a, v.recordAmount = .ok a

theorem isAmount_of_isMissing {v : Value} (h : v.isMissing = true) : v.IsAmount :=
  ⟨none, recordAmount_of_isMissing h⟩

theorem isAmount_real (x : Float) : (real x).IsAmount := by
  cases hm : isMissing (.real x) with
  | true => exact isAmount_of_isMissing hm
  | false => exact ⟨_, recordAmount_of_given trivial hm⟩

theorem isAmount_boolean (b : Bool) : (boolean b).IsAmount :=
  ⟨_, recordAmount_of_given trivial rfl⟩

theorem isAmount_text {s : String} {x : Float} (h : readReal? s = some x) : (text s).IsAmount := by
  rw [IsAmount, recordAmount_of_given (v := .text s) trivial rfl, toReal, h]
  exact ⟨_, rfl⟩

theorem isAmount_whole {n : Int} (h : IsExact n.natAbs) : (whole n).IsAmount := by
  have hinf : (nearest n.natAbs 1).isInf = false := by
    have hwhole := whole?_nearest h
    cases hx : Binary.ofFloat (nearest n.natAbs 1) with
    | finite negative m q => exact not_isInf_of_isFinite (isFinite_of_ofFloat hx)
    | nan | infinite =>
      rw [hx] at hwhole
      cases hwhole
  have hread : (Number.whole n).toFloat = .ok (signed (n < 0) (nearest n.natAbs 1)) := by
    simp [Number.toFloat, ofWhole?, hinf]
  rw [IsAmount, recordAmount_of_given (v := whole n) trivial rfl, whole, toReal, hread]
  exact ⟨_, rfl⟩

theorem IsAmount.widened {v : Value} (h : v.IsAmount) : (Frame.widened v).IsAmount := by
  cases v with
  | number n =>
    unfold Frame.widened
    dsimp only
    split
    · exact isAmount_real _
    · exact h
  | _ => exact h

theorem isScalar_ofAmount (a : Amount) : (ofAmount a).IsScalar := by cases a <;> trivial

theorem Alike.isAmount {v w : Value} (hs : v.IsScalar) (hv : v.IsAmount) (h : Alike v w) :
    w.IsAmount := by
  cases h with
  | refl => exact hv
  | real x y => exact isAmount_real y
  | list | map => cases hs

end Value

namespace Column

theorem mem_splitSign {cell : String} {c : Char} (hc : c ∈ cell.toList) (hs : isSpace c = false)
    (hm : c ≠ '-') (hp : c ≠ '+') : c ∈ (splitSign cell).2 := by
  have hkeep : ∀ cs : List Char, c ∈ cs → c ∈ cs.dropWhile isSpace := by
    intro cs hmem
    rw [← List.takeWhile_append_dropWhile (p := isSpace) (l := cs)] at hmem
    refine (List.mem_append.1 hmem).resolve_left fun ht => ?_
    rw [List.mem_takeWhile_imp ht] at hs
    cases hs
  have htrimmed : c ∈ ((cell.toList.dropWhile isSpace).reverse.dropWhile isSpace).reverse :=
    List.mem_reverse.2 (hkeep _ (List.mem_reverse.2 (hkeep _ hc)))
  unfold splitSign
  split
  · next heq =>
    rw [heq] at htrimmed
    exact (List.mem_cons.1 htrimmed).resolve_left hm
  · next heq =>
    rw [heq] at htrimmed
    exact (List.mem_cons.1 htrimmed).resolve_left hp
  · exact htrimmed

theorem whole?_floatText (x : Float) : whole? (floatText x) = none := by
  obtain ⟨c, hc, hmark⟩ := exists_mark (Binary.ofFloat x)
  have hcell : c ∈ (floatText x).toList := by rwa [floatText, String.toList_ofList]
  have hother : isSpace c = false ∧ c ≠ '-' ∧ c ≠ '+' ∧ c.isDigit = false := by
    rcases hmark with rfl | rfl | rfl <;> decide
  obtain ⟨hs, hm, hp, hd⟩ := hother
  have hall : (splitSign (floatText x)).2.all Char.isDigit = false :=
    List.all_eq_false.2 ⟨c, mem_splitSign hcell hs hm hp, by simp [hd]⟩
  rw [whole?]
  simp [hall]

theorem isSpace_of_isDigit {c : Char} (h : c.isDigit = true) : isSpace c = false := by
  have hc := toNat_of_isDigit h
  rw [Bool.eq_false_iff]
  intro hs
  simp only [isSpace, Bool.or_eq_true, Bool.and_eq_true, decide_eq_true_eq] at hs
  rcases hs with rfl | ⟨-, hle⟩
  · cases h
  · have hlow : c.toNat ≤ 13 := hle
    omega

/-- Digits with a sign in front, or without one, are the same without the blanks around them. -/
theorem splitSign_digits {cell : String} {ds : List Char} {negative : Bool}
    (hd : ∀ c ∈ ds, c.isDigit = true) (hn : ds ≠ [])
    (hcell : cell.toList = (if negative then ['-'] else []) ++ ds) :
    splitSign cell = (negative, ds) := by
  have hspace : ∀ c ∈ cell.toList, isSpace c = false := by
    intro c hc
    rw [hcell] at hc
    rcases List.mem_append.1 hc with hc | hc
    · cases negative with
      | true =>
        rw [List.mem_singleton.1 hc]
        decide
      | false => cases hc
    · exact isSpace_of_isDigit (hd c hc)
  have hdrop : ∀ cs : List Char, (∀ c ∈ cs, isSpace c = false) → cs.dropWhile isSpace = cs := by
    intro cs hcs
    cases cs with
    | nil => rfl
    | cons c cs => rw [List.dropWhile_cons_of_neg (by simp [hcs c])]
  obtain ⟨c, r, rfl⟩ := List.exists_cons_of_ne_nil hn
  have hc := hd c List.mem_cons_self
  rw [splitSign, hdrop _ hspace, hdrop _ fun c hc => hspace c (List.mem_reverse.1 hc),
    List.reverse_reverse, hcell]
  cases negative with
  | true => rfl
  | false =>
    simp only [Bool.false_eq_true, if_false, List.nil_append]
    split
    · next heq =>
      cases heq
      cases hc
    · next heq =>
      cases heq
      cases hc
    · rfl

theorem whole?_digits {cell : String} {k : Nat} (negative : Bool)
    (hcell : cell.toList = (if negative then ['-'] else []) ++ Nat.toDigits 10 k) :
    whole? cell = some (if negative then -(k : Int) else k) := by
  have hsplit := splitSign_digits isDigit_of_mem_toDigits Nat.toDigits_ne_nil hcell
  have hdigits : (Nat.toDigits 10 k).all Char.isDigit = true :=
    List.all_eq_true.2 isDigit_of_mem_toDigits
  have hvalue : (Nat.toDigits 10 k).foldl (fun n c => 10 * n + (c.toNat - 48)) 0 = k :=
    Nat.ofDigitChars_toDigits (n := k) (by omega) (by omega)
  rw [whole?, hsplit]
  simp [hdigits, hvalue, Nat.toDigits_ne_nil]

theorem whole?_toString (n : Int) : whole? (toString n) = some n := by
  cases n with
  | ofNat k => exact whole?_digits false (ofWhole_ofNat k)
  | negSucc k => exact whole?_digits true (ofWhole_negSucc k)

theorem not_mem_missingWords {cell : String} (hn : cell.toList ≠ [])
    (h : ∀ c ∈ cell.toList, c = '-' ∨ c.isDigit = true) : cell ∉ missingWords := by
  intro hm
  have hwords : missingWords.all (fun w => w.toList.isEmpty ||
      w.toList.any fun c => !(c = '-' || c.isDigit)) = true := by decide
  have hcell := List.all_eq_true.1 hwords cell hm
  rcases Bool.or_eq_true_iff.1 hcell with hempty | hother
  · exact hn (List.isEmpty_iff.1 hempty)
  · obtain ⟨c, hc, hc'⟩ := List.any_eq_true.1 hother
    rcases h c hc with rfl | hd
    · simp at hc'
    · simp [hd] at hc'

theorem valueOr_of_not_mem {cell : String} (h : cell ∉ missingWords) (value : String → Value) :
    valueOr cell value = value cell := by
  rw [valueOr, if_neg]
  rwa [List.contains_iff_mem]

theorem values_text {cells : List String} (h : ∀ c ∈ cells, IsCode c) :
    values true cells = cells.map .text := by
  unfold values
  dsimp only
  rw [if_pos rfl]
  refine List.map_congr_left fun c hc => valueOr_of_not_mem ?_ _
  exact not_mem_missingWords (h c hc).1 fun d hd => .inr ((h c hc).2 d hd)

theorem not_mem_missingWords_toString (n : Int) : toString n ∉ missingWords := by
  refine not_mem_missingWords ?_ fun c hc => Number.minus_or_isDigit_of_mem_ofWhole hc
  exact Number.text_ne_nil (.whole n)

theorem values_whole (ns : List Int) : values false (ns.map toString) = ns.map .whole := by
  have hgiven : (ns.map toString).filter (fun c => !missingWords.contains c) = ns.map toString := by
    refine List.filter_eq_self.2 fun c hc => ?_
    obtain ⟨n, -, rfl⟩ := List.mem_map.1 hc
    simpa using not_mem_missingWords_toString n
  have hwholes : (ns.map toString).filterMap whole? = ns := by
    rw [List.filterMap_map]
    simp only [Function.comp_def, whole?_toString, List.filterMap_some]
  unfold values
  simp only [hgiven, hwholes, List.length_map, Nat.lt_irrefl, decide_false, Bool.false_and,
    Bool.false_eq_true, if_false, if_true, List.map_map]
  refine List.map_congr_left fun n _ => ?_
  rw [Function.comp_apply, valueOr_of_not_mem (not_mem_missingWords_toString n), whole?_toString]
  rfl

/-- Whether a cell is empty or holds the text of a number that is read as an amount. -/
def IsAmountCell (cell : String) : Prop :=
  cell = "" ∨ (∃ x, cell = floatText x) ∨ ∃ n, cell = toString n ∧ (Value.whole n).IsAmount

/-- The values of a column of amounts are read as amounts, whatever form the column gives them. -/
theorem values_amount {cells : List String} (h : ∀ c ∈ cells, IsAmountCell c) :
    ∀ v ∈ values false cells, v.IsAmount := by
  have hthrough : ∀ {value : String → Value},
      (∀ c ∈ cells, c ∉ missingWords → (value c).IsAmount) →
      ∀ v ∈ cells.map fun c => valueOr c value, v.IsAmount := by
    intro value hvalue v hv
    obtain ⟨c, hc, rfl⟩ := List.mem_map.1 hv
    by_cases hm : c ∈ missingWords
    · refine Value.isAmount_of_isMissing ?_
      rw [valueOr, if_pos (List.contains_iff_mem.2 hm)]
      exact Frame.isMissing_missing
    · rw [valueOr_of_not_mem hm]
      exact hvalue c hc hm
  have hgiven : ∀ c ∈ cells, c ∉ missingWords →
      (∃ x, c = floatText x) ∨ ∃ n, c = toString n ∧ (Value.whole n).IsAmount := by
    intro c hc hm
    refine (h c hc).resolve_left ?_
    rintro rfl
    exact hm (by decide)
  unfold values
  dsimp only
  rw [if_neg Bool.false_ne_true]
  split
  next hwholes =>
    have hwhole : ∀ c ∈ cells, c ∉ missingWords →
        (Value.whole ((whole? c).getD 0)).IsAmount := by
      intro c hc hm
      obtain ⟨n, -, hn⟩ := exists_of_forall₂ (forall₂_filterMap hwholes) c
        (List.mem_filter.2 ⟨hc, by simpa using hm⟩)
      obtain ⟨x, rfl⟩ | ⟨k, rfl, hk⟩ := hgiven c hc hm
      · rw [whole?_floatText] at hn
        cases hn
      · rwa [whole?_toString, Option.getD_some]
    split
    · exact hthrough fun c hc hm => (hwhole c hc hm).widened
    · exact hthrough hwhole
  next =>
    split
    · exact hthrough fun c _ _ => Value.isAmount_real _
    split
    · exact hthrough fun c _ _ => Value.isAmount_boolean _
    · refine hthrough fun c hc hm => ?_
      obtain ⟨x, rfl⟩ | ⟨n, rfl, -⟩ := hgiven c hc hm
      · exact Value.isAmount_text (readReal?_floatText x).choose_spec
      · exact Value.isAmount_text (readReal?_toString n).choose_spec

theorem length_values (isText : Bool) (cells : List String) :
    (values isText cells).length = cells.length := by
  unfold values
  dsimp only
  split_ifs <;> exact List.length_map _

/-- Whether a value is a floating-point value, or the whole number which that equals. -/
def Narrowed (x : Float) (v : Value) : Prop :=
  v = .real x ∨ ∃ n, (Number.real x).whole? = some n ∧ v = .whole n

theorem forall₂_narrowed (xs : List Float) : List.Forall₂ Narrowed xs (narrowed xs) := by
  unfold narrowed
  dsimp only
  split
  · next hall =>
    have hlength := (Bool.and_eq_true _ _ ▸ hall).1
    rw [List.forall₂_map_right_iff]
    exact (forall₂_filterMap (of_decide_eq_true hlength)).imp fun x n hx => .inr ⟨n, hx, rfl⟩
  · rw [List.forall₂_map_right_iff, List.forall₂_same]
    exact fun x _ => .inl rfl

theorem Narrowed.recordText {x : Float} {v : Value} (h : Narrowed x v) :
    v.recordText = (Value.real x).recordText := by
  obtain rfl | ⟨n, hn, rfl⟩ := h
  · rfl
  · have hx := Value.recordText_number (Number.same_whole_iff.2 hn)
    exact hx.symm

theorem Narrowed.isAmount {x : Float} {v : Value} (h : Narrowed x v) : v.IsAmount := by
  obtain rfl | ⟨n, hn, rfl⟩ := h
  · exact Value.isAmount_real x
  · exact Value.isAmount_whole (isExact_of_whole? hn)

theorem converted_cases (vs : List Value) : converted vs = vs ∨
    ∃ xs, List.Forall₂ (fun v x => numeric? v = some x) vs xs ∧ converted vs = narrowed xs := by
  unfold converted
  dsimp only
  split
  · exact .inl rfl
  · split
    · next hall => exact .inr ⟨_, forall₂_filterMap hall, rfl⟩
    · exact .inl rfl

theorem length_converted (vs : List Value) : (converted vs).length = vs.length := by
  obtain h | ⟨xs, hxs, h⟩ := converted_cases vs
  · rw [h]
  · rw [h, ← (forall₂_narrowed xs).length_eq, ← hxs.length_eq]

theorem converted_whole {vs : List Value} (h : ∀ v ∈ vs, Frame.isWhole v = true) :
    converted vs = vs := by
  unfold converted
  exact if_pos (by rw [List.all_eq_true.2 h, Bool.true_or])

theorem converted_amount {vs : List Value} (h : ∀ v ∈ vs, v.IsAmount) :
    ∀ w ∈ converted vs, w.IsAmount := by
  intro w hw
  obtain heq | ⟨xs, -, heq⟩ := converted_cases vs
  · exact h w (heq ▸ hw)
  · obtain ⟨x, -, hx⟩ := exists_of_forall₂ (forall₂_narrowed xs).flip w (heq ▸ hw)
    exact Narrowed.isAmount hx

theorem converted_of_text {vs : List Value} {s : String} (hs : .text s ∈ vs) {xs : List Float}
    (hread : vs.filterMap numeric? = xs) (hlength : xs.length = vs.length) :
    converted vs = narrowed xs := by
  unfold converted
  dsimp only
  split
  · next hkind =>
    rcases Bool.or_eq_true_iff.1 hkind with hall | hall
    · cases List.all_eq_true.1 hall _ hs
    · cases List.all_eq_true.1 hall _ hs
  · rw [hread, if_pos hlength]

theorem converted_codes {ss : List String} (h : ∀ s ∈ ss, IsCode s) :
    List.Forall₂ (fun s w => w.recordText = throughNumber s) ss (converted (ss.map .text)) := by
  have hread : ∀ s ∈ ss, numeric? (.text s) = some (nearestDecimal (digitsValue s.toList) 0) :=
    fun s hs => (h s hs).readReal?_eq
  have hthrough : ∀ s ∈ ss, throughNumber s =
      (Value.real (nearestDecimal (digitsValue s.toList) 0)).recordText := by
    intro s hs
    rw [throughNumber, (h s hs).readReal?_eq]
  by_cases hnil : ss = []
  · rw [hnil]
    exact .nil
  obtain ⟨s, hs⟩ := List.exists_mem_of_ne_nil ss hnil
  have hxs : (ss.map Value.text).filterMap numeric? =
      ss.map fun s => nearestDecimal (digitsValue s.toList) 0 := by
    rw [List.filterMap_map, ← List.filterMap_eq_map]
    exact List.filterMap_congr hread
  rw [converted_of_text (List.mem_map_of_mem hs) hxs (by simp)]
  have hnarrowed := List.forall₂_map_left_iff.1
    (forall₂_narrowed (ss.map fun s => nearestDecimal (digitsValue s.toList) 0))
  refine ((List.forall₂_and_left _ _).2 ⟨hthrough, hnarrowed⟩).imp fun s w hw => ?_
  rw [Narrowed.recordText hw.2, hw.1]

end Column

namespace Frame
variable {values : List (Option Value)}

/-- The values of a column of a table relate to what the records hold as in `exists_cell`. -/
theorem forall₂_typed (values : List (Option Value)) {R : Value → Value → Prop}
    (hself : ∀ v, R v v)
    (hmissing : ∀ {v w}, v.isMissing = true → w.isMissing = true → R v w)
    (hwide : (∃ v ∈ values, ∀ n, v ≠ some (.number (.whole n))) →
      ∀ v, some v ∈ values → isNumber v = true → R v (widened v)) :
    List.Forall₂ (fun v w => R (v.getD .null) w) values (typed values) := by
  obtain ⟨cell, hcell, hrelated⟩ := exists_cell hself hmissing hwide
  rw [hcell, List.forall₂_map_right_iff, List.forall₂_same]
  exact hrelated

theorem length_typed (values : List (Option Value)) : (typed values).length = values.length :=
  (forall₂_typed values (R := fun _ _ => True) (fun _ => trivial) (fun _ _ => trivial)
    fun _ _ _ _ => trivial).length_eq.symm

theorem typed_amount (h : ∀ v ∈ values, (v.getD .null).IsAmount) :
    ∀ w ∈ typed values, w.IsAmount := by
  have htyped := forall₂_typed values (R := fun v w => v.IsAmount → w.IsAmount)
    (fun _ hv => hv) (fun _ hw _ => Value.isAmount_of_isMissing hw) fun _ _ _ _ hv => hv.widened
  intro w hw
  obtain ⟨v, hv, hread⟩ := exists_of_forall₂ htyped.flip w hw
  exact hread (h v hv)

theorem typed_whole (ns : List Int) : typed (ns.map fun n => some (.whole n)) = ns.map .whole := by
  have htyped := forall₂_typed (ns.map fun n => some (.whole n))
    (R := fun v w => ∀ n, v = .whole n → w = .whole n) (fun _ _ hv => hv) ?_ ?_
  · simpa using map_eq_of_forall₂ (k := id) (fun n w hw => hw n rfl)
      (List.forall₂_map_left_iff.1 htyped)
  · rintro v w hv - n rfl
    cases hv
  · rintro ⟨v, hv, hn⟩
    obtain ⟨n, -, rfl⟩ := List.mem_map.1 hv
    exact absurd rfl (hn n)

theorem typed_text (ss : List String) : typed (ss.map fun s => some (.text s)) = ss.map .text := by
  have htyped := forall₂_typed (ss.map fun s => some (.text s))
    (R := fun v w => ∀ s, v = .text s → w = .text s) (fun _ _ hv => hv) ?_ ?_
  · simpa using map_eq_of_forall₂ (k := id) (fun s w hw => hw s rfl)
      (List.forall₂_map_left_iff.1 htyped)
  · rintro v w hv - s rfl
    cases hv
  · rintro - v - hnumber s rfl
    cases hnumber

end Frame
end LedgerReport
